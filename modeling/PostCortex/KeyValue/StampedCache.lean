import Mathlib.Logic.Basic

/-!
# A cache with stamps

A value computed from some content is kept with a stamp of the content, and is served
again while the stamp is that of the content at hand.  What is served is the value of
the content as long as the stamp tells it from the content the value was computed from.
-/

namespace PostCortex
namespace KeyValue

structure Stamped (stamp value : Type) where
  stamp : stamp
  value : value

variable {content stamp value : Type} [DecidableEq stamp] (stampOf : content -> stamp)
  (compute : content -> value)

def serve (c : content) (cached : Option (Stamped stamp value)) :
    value × Option (Stamped stamp value) :=
  match cached.filter (fun e => e.stamp = stampOf c) with
  | some e => (e.value, cached)
  | none => (compute c, some ⟨stampOf c, compute c⟩)

def sourceAfter (c : content) (source : Option content)
    (cached : Option (Stamped stamp value)) : Option content :=
  if cached.any (fun e => e.stamp = stampOf c) then source else some c

/-- A kept value with the stamp of the content is the value of the content. -/
def FreshFor (c : content) (cached : Option (Stamped stamp value)) : Prop :=
  forall e, cached = some e -> e.stamp = stampOf c -> e.value = compute c

def MadeFrom (source : Option content) (cached : Option (Stamped stamp value)) : Prop :=
  forall e, cached = some e -> exists c, source = some c ∧ e.value = compute c

/-- A stamp that is that of the content is one that was taken of it. -/
def Tells (c : content) (source : Option content) (cached : Option (Stamped stamp value)) :
    Prop :=
  forall e, cached = some e -> e.stamp = stampOf c -> source = some c

variable {stampOf compute} {c : content} {cached : Option (Stamped stamp value)}

theorem serve_eq_iff :
    (serve stampOf compute c cached).1 = compute c ↔ FreshFor stampOf compute c cached := by
  cases cached with
  | none =>
      refine iff_of_true rfl ?_
      intro e he
      cases he
  | some e =>
      by_cases hstamp : e.stamp = stampOf c
      · have hserve : (serve stampOf compute c (some e)).1 = e.value := by
          rw [serve, Option.filter_some, if_pos (decide_eq_true hstamp)]
        rw [hserve]
        constructor
        · intro h e' he' _
          cases he'
          exact h
        · exact fun h => h e rfl hstamp
      · have hserve : (serve stampOf compute c (some e)).1 = compute c := by
          rw [serve, Option.filter_some, if_neg (by rw [decide_eq_true_iff]; exact hstamp)]
        refine iff_of_true hserve ?_
        intro e' he' hstamp'
        cases he'
        exact absurd hstamp' hstamp

variable {source : Option content}

omit [DecidableEq stamp] in
theorem MadeFrom.fresh (h : MadeFrom compute source cached)
    (htells : Tells stampOf c source cached) :
    FreshFor stampOf compute c cached := by
  intro e he hstamp
  obtain ⟨c', hsource, hvalue⟩ := h e he
  rw [htells e he hstamp] at hsource
  cases hsource
  exact hvalue

omit [DecidableEq stamp] in
/-- The kept stamp goes on telling as long as the content comes to it only by
staying as it is. -/
theorem Tells.moved {c' : content} (h : Tells stampOf c source cached)
    (hmoved : forall e, cached = some e -> e.stamp = stampOf c' -> c' = c) :
    Tells stampOf c' source cached := by
  intro e he hstamp
  have hsame := hmoved e he hstamp
  subst hsame
  exact h e he hstamp

theorem Tells.serve (h : Tells stampOf c source cached) :
    Tells stampOf c (sourceAfter stampOf c source cached)
      (serve stampOf compute c cached).2 := by
  intro e he hstamp
  unfold sourceAfter
  split
  · next hkept =>
    obtain ⟨old, hold, heq⟩ := (Option.any_eq_true _ _).mp hkept
    exact h old hold (of_decide_eq_true heq)
  · rfl

theorem MadeFrom.serve (h : MadeFrom compute source cached) :
    MadeFrom compute (sourceAfter stampOf c source cached)
      (serve stampOf compute c cached).2 := by
  intro e he
  cases cached with
  | none =>
      cases he
      exact ⟨c, rfl, rfl⟩
  | some old =>
      unfold KeyValue.serve at he
      unfold sourceAfter
      by_cases hstamp : old.stamp = stampOf c
      · rw [Option.filter_some, if_pos (decide_eq_true hstamp)] at he
        rw [Option.any_some, if_pos (decide_eq_true hstamp)]
        exact h e he
      · rw [Option.filter_some, if_neg (by rw [decide_eq_true_iff]; exact hstamp)] at he
        cases he
        rw [Option.any_some, if_neg (by rw [decide_eq_true_iff]; exact hstamp)]
        exact ⟨c, rfl, rfl⟩

end KeyValue
end PostCortex
