import Mathlib.Data.List.Basic
import Mathlib.Data.List.Induction
import Mathlib.Logic.Function.Basic

/-!
# The last puts

What a key holds after a history of puts, removals and evictions: the value of its last
put, unless the key went since.
-/

namespace PostCortex
namespace KeyValue

inductive Event (key value : Type) where
  | put (k : key) (v : value)
  | removed (k : key)
  | evicted (k : key)
  | cleared
  deriving DecidableEq, Repr

namespace Event

variable {key value : Type}

def Touches (k : key) : Event key value -> Prop
  | put changed _ => changed = k
  | removed changed => changed = k
  | evicted changed => changed = k
  | cleared => True

def apply [DecidableEq key] (held : key -> Option value) :
    Event key value -> key -> Option value
  | put k v => Function.update held k (some v)
  | removed k => Function.update held k none
  | evicted k => Function.update held k none
  | cleared => fun _ => none

end Event

variable {key value : Type}

def LastPut (history : List (Event key value)) (k : key) (v : value) : Prop :=
  exists before after, history = before ++ Event.put k v :: after ∧
    forall e, e ∈ after -> ¬ e.Touches k

variable {k : key} {v : value}

theorem not_lastPut_nil : ¬ LastPut [] k v := by
  rintro ⟨before, after, h, _⟩
  exact List.append_ne_nil_of_right_ne_nil before (List.cons_ne_nil _ after) h.symm

variable {e : Event key value}

theorem lastPut_concat {history : List (Event key value)} :
    LastPut (history ++ [e]) k v ↔
      e = Event.put k v ∨ ¬ e.Touches k ∧ LastPut history k v := by
  constructor
  · rintro ⟨before, after, h, hafter⟩
    cases List.eq_nil_or_concat after with
    | inl hnil =>
        rw [hnil] at h
        exact Or.inl (List.append_inj_right' h rfl |> List.head_eq_of_cons_eq)
    | inr hconcat =>
        obtain ⟨front, last, hconcat⟩ := hconcat
        rw [List.concat_eq_append] at hconcat
        rw [hconcat, ← List.cons_append, ← List.append_assoc] at h
        have hlast : e = last := List.head_eq_of_cons_eq (List.append_inj_right' h rfl)
        have hfront := List.append_inj_left' h rfl
        right
        constructor
        · rw [hlast]
          apply hafter
          rw [hconcat]
          exact List.mem_append_right front (List.mem_singleton_self last)
        · refine ⟨before, front, hfront, ?_⟩
          intro e he
          apply hafter
          rw [hconcat]
          exact List.mem_append_left [last] he
  · intro h
    cases h with
    | inl hput =>
        rw [hput]
        exact ⟨history, [], rfl, by simp⟩
    | inr hkept =>
        obtain ⟨hkept, before, after, hhistory, hafter⟩ := hkept
        refine ⟨before, after ++ [e], ?_, ?_⟩
        · rw [hhistory, List.append_assoc, List.cons_append]
        · intro d hd
          cases List.mem_append.mp hd with
          | inl hd => exact hafter d hd
          | inr hd =>
              rw [List.mem_singleton.mp hd]
              exact hkept

variable {held : key -> Option value}

theorem update_none_eq_some [DecidableEq key] {changed : key} :
    Function.update held changed none k = some v ↔ ¬ changed = k ∧ held k = some v := by
  by_cases hk : k = changed
  · simp [hk]
  · simp [hk, Ne.symm hk]

theorem apply_eq_some [DecidableEq key] :
    e.apply held k = some v ↔
      e = Event.put k v ∨ ¬ e.Touches k ∧ held k = some v := by
  cases e with
  | put changed w =>
      by_cases hk : k = changed
      · simp [Event.apply, Event.Touches, hk]
      · simp [Event.apply, Event.Touches, hk, Ne.symm hk]
  | removed changed | evicted changed =>
      simp [Event.apply, Event.Touches, update_none_eq_some]
  | cleared => simp [Event.apply, Event.Touches]

theorem held_iff_lastPut [DecidableEq key] (history : List (Event key value)) :
    history.foldl Event.apply (fun _ => none) k = some v ↔ LastPut history k v := by
  induction history using List.reverseRecOn with
  | nil => simp [not_lastPut_nil]
  | append_singleton history e ih =>
      rw [List.foldl_concat, apply_eq_some, ih, lastPut_concat]

end KeyValue
end PostCortex
