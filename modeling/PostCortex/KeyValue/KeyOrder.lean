import PostCortex.KeyValue.Database
import PostCortex.KeyValue.FixedWidth

/-!
# The order of text keys

Text keys are in the order of their characters.  The keys between two keys
with a common beginning begin so too, and after a common beginning two padded
numerals are in the order of their numbers.
-/

namespace PostCortex
namespace KeyValue

theorem compare_eq_lt {a b : String} :
    compare a b = Ordering.lt ↔ a.toList < b.toList :=
  compareOfLessAndEq_eq_lt

theorem compare_isLE {a b : String} :
    (compare a b).isLE = true ↔ ¬ b.toList < a.toList :=
  isLE_compareOfLessAndEq String.le_antisymm String.not_le String.le_total

theorem append_left_lt_iff (common : List Char) {xs ys : List Char} :
    common ++ xs < common ++ ys ↔ xs < ys := by
  induction common with
  | nil =>
      rfl
  | cons c rest ih =>
      rw [List.cons_append, List.cons_append, List.cons_lt_cons_iff, ih]
      constructor
      · rintro (h | ⟨_, h⟩)
        · exact absurd h (Char.lt_irrefl c)
        · exact h
      · exact fun h => Or.inr ⟨rfl, h⟩

theorem prefix_between {common xs ys zs : List Char}
    (hfrom : ¬ zs < common ++ xs) (hto : zs < common ++ ys) :
    common <+: zs := by
  induction common generalizing zs with
  | nil =>
      exact List.nil_prefix
  | cons c rest ih =>
      cases zs with
      | nil =>
          exact absurd (List.nil_lt_cons ..) hfrom
      | cons z zs =>
          rw [List.cons_append, List.cons_lt_cons_iff, not_or] at hfrom
          rw [List.cons_append, List.cons_lt_cons_iff] at hto
          have heq : z = c := by
            rcases hto with hlt | ⟨heq, _⟩
            · exact absurd hlt hfrom.1
            · exact heq
          subst heq
          have hrest := hto.resolve_left (Char.lt_irrefl z)
          rw [List.cons_prefix_cons]
          exact ⟨rfl, ih (fun h => hfrom.2 ⟨rfl, h⟩) hrest.2⟩

theorem prefix_of_le {common ys zs : List Char} (hfrom : ¬ zs < common)
    (hto : ¬ ys < zs) (hys : common <+: ys) :
    common <+: zs := by
  obtain ⟨rest, rfl⟩ := hys
  rw [← List.append_nil common] at hfrom
  rcases Std.le_iff_lt_or_eq.mp (Std.not_lt.mp hto) with hlt | rfl
  · exact prefix_between hfrom hlt
  · exact List.prefix_append _ _

theorem takeWhile_eq_filter {item : Type} {p : item -> Bool} {xs : List item}
    (h : xs.Pairwise (fun x y => p y = true -> p x = true)) :
    xs.takeWhile p = xs.filter p := by
  induction xs with
  | nil => rfl
  | cons x rest ih =>
      obtain ⟨hfirst, hrest⟩ := List.pairwise_cons.mp h
      by_cases hx : p x = true
      · rw [List.takeWhile_cons_of_pos hx, List.filter_cons_of_pos hx, ih hrest]
      · rw [List.takeWhile_cons_of_neg hx, List.filter_cons_of_neg hx, eq_comm,
          List.filter_eq_nil_iff]
        exact fun y hy hpy => hx (hfirst y hy hpy)

theorem paddedDigits_lt_iff {width m n : Nat} (hm : m < 10 ^ (width + 1))
    (hn : n < 10 ^ (width + 1)) :
    paddedDigits (width + 1) m < paddedDigits (width + 1) n ↔ m < n := by
  rw [paddedDigits_eq hm, paddedDigits_eq hn, fixedDigits_lt_iff hm hn]

end KeyValue
end PostCortex
