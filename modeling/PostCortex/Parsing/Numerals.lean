import Mathlib.Data.List.Forall2
import Mathlib.Data.List.TakeWhile
import PostCortex.Numeric.Isize

/-!
# Numerals and blanks

Decimal numerals of machine integers, and the blanks around what a text is split into.
-/

namespace PostCortex
namespace Parsing

open PostCortex.Numeric

/-!
# Numerals
-/

def Digits (cs : List Char) : Prop :=
  cs ≠ [] ∧ forall c, c ∈ cs -> c.isDigit = true

def value (digits : List Char) : Nat :=
  Nat.ofDigitChars 10 digits 0

/-- Digits, after a minus sign when the number is negative. -/
inductive NumberText : List Char -> Isize -> Prop where
  | plain {digits : List Char} {i : Isize} :
      Digits digits -> i.val = value digits -> NumberText digits i
  | minus {digits : List Char} {i : Isize} :
      Digits digits -> i.val = -(value digits : Int) -> NumberText ('-' :: digits) i

inductive SignedText : List Char -> Isize -> Prop where
  | number {cs : List Char} {i : Isize} : NumberText cs i -> SignedText cs i
  | plus {digits : List Char} {i : Isize} :
      Digits digits -> i.val = value digits -> SignedText ('+' :: digits) i

def ofDigits (sign : Int) (digits : List Char) : Option Isize :=
  if digits ≠ [] ∧ digits.all Char.isDigit = true then
    (Isize.checked (sign * value digits)).toOption
  else none

def parseIsize : List Char -> Option Isize
  | [] => none
  | c :: rest =>
      if c = '-' then ofDigits (-1) rest
      else if c = '+' then ofDigits 1 rest
      else ofDigits 1 (c :: rest)

def numberText (i : Isize) : List Char :=
  if i.val < 0 then '-' :: Nat.toDigits 10 i.val.natAbs
  else Nat.toDigits 10 i.val.natAbs

variable {i : Isize}

theorem checked_toOption {n : Int} :
    (Isize.checked n).toOption = some i ↔ i.val = n := by
  unfold Isize.checked
  split
  · constructor
    · intro h
      cases h
      rfl
    · rintro rfl
      rfl
  · next hout =>
    constructor
    · intro h
      cases h
    · rintro rfl
      exact absurd ⟨i.lower, i.upper⟩ hout

theorem ofDigits_eq_some {sign : Int} {digits : List Char} :
    ofDigits sign digits = some i ↔ Digits digits ∧ i.val = sign * value digits := by
  have hdigits : (digits ≠ [] ∧ digits.all Char.isDigit = true) ↔ Digits digits := by
    rw [Digits, List.all_eq_true]
  unfold ofDigits
  split
  · next h => simp only [checked_toOption, hdigits.mp h, true_and]
  · next h => simp only [mt hdigits.mpr h, false_and, reduceCtorEq]

theorem parseIsize_cons (c : Char) (rest : List Char) :
    parseIsize (c :: rest) =
      if c = '-' then ofDigits (-1) rest
      else if c = '+' then ofDigits 1 rest
      else ofDigits 1 (c :: rest) :=
  rfl

theorem Digits.head {c : Char} {rest : List Char} (h : Digits (c :: rest)) :
    c ≠ '-' ∧ c ≠ '+' := by
  have hc := h.2 c List.mem_cons_self
  constructor
  · rintro rfl
    exact absurd hc (by decide)
  · rintro rfl
    exact absurd hc (by decide)

theorem not_digits_nil : ¬ Digits [] :=
  fun h => h.1 rfl

variable {cs : List Char}

theorem parseIsize_eq_some :
    parseIsize cs = some i ↔ SignedText cs i := by
  constructor
  · intro h
    cases cs with
    | nil => cases h
    | cons c rest =>
        rw [parseIsize_cons] at h
        split at h
        · next hc =>
          obtain ⟨hdigits, hval⟩ := ofDigits_eq_some.mp h
          rw [Int.neg_one_mul] at hval
          exact hc ▸ SignedText.number (NumberText.minus hdigits hval)
        · split at h
          · next hc =>
            obtain ⟨hdigits, hval⟩ := ofDigits_eq_some.mp h
            rw [Int.one_mul] at hval
            exact hc ▸ SignedText.plus hdigits hval
          · obtain ⟨hdigits, hval⟩ := ofDigits_eq_some.mp h
            rw [Int.one_mul] at hval
            exact SignedText.number (NumberText.plain hdigits hval)
  · intro h
    cases h with
    | number h =>
        cases h with
        | plain hdigits hval =>
            cases cs with
            | nil => exact absurd hdigits not_digits_nil
            | cons c rest =>
                rw [parseIsize_cons, if_neg hdigits.head.1, if_neg hdigits.head.2, ofDigits_eq_some,
                  Int.one_mul]
                exact ⟨hdigits, hval⟩
        | minus hdigits hval =>
            rw [parseIsize_cons, if_pos rfl, ofDigits_eq_some, Int.neg_one_mul]
            exact ⟨hdigits, hval⟩
    | plus hdigits hval =>
        rw [parseIsize_cons, if_neg (by decide), if_pos rfl, ofDigits_eq_some, Int.one_mul]
        exact ⟨hdigits, hval⟩

theorem digits_toDigits (n : Nat) : Digits (Nat.toDigits 10 n) :=
  ⟨Nat.toDigits_ne_nil, fun _ hc => Nat.isDigit_of_mem_toDigits (by decide) (by decide) hc⟩

theorem value_toDigits (n : Nat) : value (Nat.toDigits 10 n) = n :=
  Nat.ofDigitChars_ten_toDigits

theorem numberText_spec (i : Isize) : NumberText (numberText i) i := by
  unfold numberText
  split
  · apply NumberText.minus (digits_toDigits _)
    rw [value_toDigits]
    omega
  · apply NumberText.plain (digits_toDigits _)
    rw [value_toDigits]
    omega

theorem SignedText.chars (h : SignedText cs i) :
    cs ≠ [] ∧ forall c, c ∈ cs -> c.isDigit = true ∨ c = '-' ∨ c = '+' := by
  cases h with
  | number h =>
      cases h with
      | plain hdigits hval =>
          exact ⟨hdigits.1, fun c hc => Or.inl (hdigits.2 c hc)⟩
      | minus hdigits hval =>
          refine ⟨List.cons_ne_nil _ _, fun c hc => ?_⟩
          rcases List.mem_cons.mp hc with rfl | hc
          · exact Or.inr (Or.inl rfl)
          · exact Or.inl (hdigits.2 c hc)
  | plus hdigits hval =>
      refine ⟨List.cons_ne_nil _ _, fun c hc => ?_⟩
      rcases List.mem_cons.mp hc with rfl | hc
      · exact Or.inr (Or.inr rfl)
      · exact Or.inl (hdigits.2 c hc)

/-!
# Blanks
-/

section

variable (space : Char -> Bool)

def trimBy (cs : List Char) : List Char :=
  ((cs.dropWhile space).reverse.dropWhile space).reverse

def Blank (cs : List Char) : Prop :=
  forall c, c ∈ cs -> space c = true

def Padded {result : Type} (reads : List Char -> result -> Prop) (cs : List Char)
    (x : result) : Prop :=
  exists before text after, cs = before ++ text ++ after ∧
    Blank space before ∧ Blank space after ∧ reads text x

variable {space}

theorem trimBy_split (cs : List Char) :
    exists before after, cs = before ++ trimBy space cs ++ after ∧
      Blank space before ∧ Blank space after := by
  refine ⟨cs.takeWhile space,
    ((cs.dropWhile space).reverse.takeWhile space).reverse, ?_, ?_, ?_⟩
  · rw [trimBy, List.append_assoc, ← List.reverse_append,
      List.takeWhile_append_dropWhile, List.reverse_reverse,
      List.takeWhile_append_dropWhile]
  · exact fun c hc => List.mem_takeWhile_imp hc
  · exact fun c hc => List.mem_takeWhile_imp (List.mem_reverse.mp hc)

variable {before : List Char}

theorem dropWhile_blank_append (h : Blank space before) (cs : List Char) :
    (before ++ cs).dropWhile space = cs.dropWhile space :=
  List.dropWhile_append_of_pos h

theorem trimBy_blank_append (h : Blank space before) (cs : List Char) :
    trimBy space (before ++ cs) = trimBy space cs := by
  rw [trimBy, dropWhile_blank_append h, trimBy]

variable {after : List Char}

theorem trimBy_append_blank (h : Blank space after) (cs : List Char) :
    trimBy space (cs ++ after) = trimBy space cs := by
  have hreverse : Blank space after.reverse := fun c hc => h c (List.mem_reverse.mp hc)
  unfold trimBy
  rw [List.dropWhile_append]
  split
  · next hempty =>
    have hnil : after.dropWhile space = [] := by
      have hdrop := dropWhile_blank_append h []
      rwa [List.append_nil] at hdrop
    rw [List.isEmpty_iff] at hempty
    rw [hnil, hempty]
  · rw [List.reverse_append, dropWhile_blank_append hreverse]

variable {cs : List Char}

theorem trimBy_self (h : forall c, c ∈ cs -> space c = false) :
    trimBy space cs = cs := by
  have hdrop : forall list : List Char, (forall c, c ∈ list -> space c = false) ->
      list.dropWhile space = list := by
    intro list hlist
    cases list with
    | nil => rfl
    | cons c rest =>
        rw [List.dropWhile_cons_of_neg]
        rw [hlist c List.mem_cons_self]
        decide
  unfold trimBy
  rw [hdrop cs h, hdrop cs.reverse (fun c hc => h c (List.mem_reverse.mp hc)),
    List.reverse_reverse]

theorem trimBy_eq_nil : trimBy space cs = [] ↔ Blank space cs := by
  constructor
  · intro h
    obtain ⟨before, after, hsplit, hbefore, hafter⟩ := @trimBy_split space cs
    rw [h, List.append_nil] at hsplit
    intro c hc
    rw [hsplit] at hc
    rcases List.mem_append.mp hc with hc | hc
    · exact hbefore c hc
    · exact hafter c hc
  · intro h
    have htrim := trimBy_append_blank h []
    rwa [List.nil_append] at htrim

theorem mem_trimBy {c : Char} (hc : space c = false) :
    c ∈ trimBy space cs ↔ c ∈ cs := by
  obtain ⟨before, after, hsplit, hbefore, hafter⟩ := @trimBy_split space cs
  have hnot : forall list, Blank space list -> ¬ c ∈ list := by
    intro list hlist hmem
    rw [hlist c hmem] at hc
    cases hc
  conv => rhs; rw [hsplit]
  simp only [List.mem_append, hnot before hbefore, hnot after hafter, false_or, or_false]

theorem trimBy_twice (cs : List Char) :
    trimBy space (trimBy space cs) = trimBy space cs := by
  obtain ⟨before, after, hsplit, hbefore, hafter⟩ := @trimBy_split space cs
  have htrim := trimBy_blank_append hbefore (trimBy space cs)
  rw [← trimBy_append_blank hafter, ← hsplit] at htrim
  exact htrim.symm

theorem padded_iff {result : Type} {reads : List Char -> result -> Prop}
    (hreads : forall text x, reads text x -> forall c, c ∈ text -> space c = false)
    {x : result} :
    Padded space reads cs x ↔ reads (trimBy space cs) x := by
  constructor
  · rintro ⟨before, text, after, rfl, hbefore, hafter, htext⟩
    rw [trimBy_append_blank hafter, trimBy_blank_append hbefore,
      trimBy_self (hreads text x htext)]
    exact htext
  · intro h
    obtain ⟨before, after, hsplit, hbefore, hafter⟩ := @trimBy_split space cs
    exact ⟨before, trimBy space cs, after, hsplit, hbefore, hafter, h⟩

/-!
# Splitting
-/

theorem splitOn_blank_append {sep : Char} (hsep : sep ∉ before) (cs : List Char) :
    (before ++ cs).splitOn sep = (cs.splitOn sep).modifyHead (before ++ ·) := by
  induction before with
  | nil =>
      rw [List.nil_append]
      cases cs.splitOn sep <;> rfl
  | cons b before ih =>
      rw [List.mem_cons, not_or] at hsep
      have hb : (b == sep) = false := beq_eq_false_iff_ne.mpr (Ne.symm hsep.1)
      rw [List.cons_append, List.splitOn_cons_eq_if_modifyHead, hb, ih hsep.2]
      cases cs.splitOn sep <;> rfl

theorem splitOn_append_blank {sep : Char} (hsep : sep ∉ after) (cs : List Char) :
    exists front last, cs.splitOn sep = front ++ [last] ∧
      (cs ++ after).splitOn sep = front ++ [last ++ after] := by
  induction cs with
  | nil => exact ⟨[], [], rfl, List.splitOn_eq_singleton hsep⟩
  | cons c cs ih =>
      obtain ⟨front, last, hfront, hlast⟩ := ih
      rw [List.cons_append, List.splitOn_cons_eq_if_modifyHead,
        List.splitOn_cons_eq_if_modifyHead, hfront, hlast]
      split
      · exact ⟨[] :: front, last, rfl, rfl⟩
      · cases front with
        | nil => exact ⟨[], c :: last, rfl, rfl⟩
        | cons first front => exact ⟨(c :: first) :: front, last, rfl, rfl⟩

theorem splitOn_trimBy {sep : Char} (hsep : space sep = false) (cs : List Char) :
    ((trimBy space cs).splitOn sep).map (trimBy space) =
      (cs.splitOn sep).map (trimBy space) := by
  obtain ⟨before, after, hsplit, hbefore, hafter⟩ := @trimBy_split space cs
  have hnot : forall list, Blank space list -> sep ∉ list := by
    intro list hlist hmem
    rw [hlist sep hmem] at hsep
    cases hsep
  obtain ⟨front, last, hfront, hlast⟩ :=
    splitOn_append_blank (hnot after hafter) (before ++ trimBy space cs)
  rw [← hsplit] at hlast
  have hbegin := splitOn_blank_append (hnot before hbefore) (trimBy space cs)
  rw [hlast, List.map_append, List.map_singleton, trimBy_append_blank hafter,
    ← List.map_singleton, ← List.map_append, ← hfront, hbegin]
  cases (trimBy space cs).splitOn sep with
  | nil => rfl
  | cons first rest =>
      rw [List.modifyHead_cons, List.map_cons, List.map_cons, trimBy_blank_append hbefore]

end

section

variable {item : Type} {reads : List Char -> item -> Prop} {sep : Char}

inductive ItemsText (sep : Char) (reads : List Char -> item -> Prop) :
    List Char -> List item -> Prop where
  | last {cs : List Char} {x : item} : reads cs x -> ItemsText sep reads cs [x]
  | more {cs rest : List Char} {x : item} {xs : List item} :
      reads cs x -> ItemsText sep reads rest xs ->
        ItemsText sep reads (cs ++ sep :: rest) (x :: xs)

theorem itemsText_iff (hreads : forall cs x, reads cs x -> sep ∉ cs) {cs : List Char}
    {xs : List item} :
    ItemsText sep reads cs xs ↔ List.Forall₂ reads (cs.splitOn sep) xs := by
  constructor
  · intro h
    induction h with
    | last hx =>
        rw [List.splitOn_eq_singleton (hreads _ _ hx)]
        exact List.Forall₂.cons hx List.Forall₂.nil
    | more hx hrest ih =>
        rw [List.splitOn_append_cons_self_of_not_mem (hreads _ _ hx)]
        exact List.Forall₂.cons hx ih
  · intro h
    induction xs generalizing cs with
    | nil =>
        have hnil := List.forall₂_nil_right_iff.mp h
        exact absurd hnil (List.splitOn_ne_nil sep cs)
    | cons x xs ih =>
        by_cases hmem : sep ∈ cs
        · obtain ⟨first, rest, rfl, hfirst⟩ := List.eq_append_cons_of_mem hmem
          rw [List.splitOn_append_cons_self_of_not_mem hfirst, List.forall₂_cons] at h
          exact ItemsText.more h.1 (ih h.2)
        · rw [List.splitOn_eq_singleton hmem, List.forall₂_cons,
            List.forall₂_nil_left_iff] at h
          obtain ⟨hx, rfl⟩ := h
          exact ItemsText.last hx

end

end Parsing
end PostCortex
