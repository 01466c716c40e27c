import PostCortex.Graph.AliasResolution
import PostCortex.Session.ActiveSession

/-!
# Content limits

`add_incremental_update` of `session/active_session.rs` cuts the title and the
description of an update before it stores it, at a character boundary, and
writes a marker behind the cut.  The title leaves room for its marker and the
description does not, so a description that is cut stays over the limit.
-/

namespace PostCortex
namespace Session
namespace ActiveSession

open PostCortex.Core
open PostCortex.Graph

/-!
# Cutting text
-/

theorem utf8ByteSize_fittingChars (maxBytes : Nat) (cs : List Char) :
    (String.ofList (fittingChars maxBytes cs)).utf8ByteSize ≤ maxBytes := by
  induction cs generalizing maxBytes with
  | nil =>
      simp [fittingChars]
  | cons c rest ih =>
      rw [fittingChars]
      split
      · next hfits =>
        have hrest := ih (maxBytes - c.utf8Size)
        rw [String.ofList_cons, String.utf8ByteSize_append,
          String.utf8ByteSize_singleton]
        omega
      · simp

theorem utf8ByteSize_truncateSafe (s : String) (maxBytes : Nat) :
    (truncateSafe s maxBytes).utf8ByteSize ≤ maxBytes := by
  unfold truncateSafe
  split
  · assumption
  · exact utf8ByteSize_fittingChars _ _

variable {maxBytes : Nat}

theorem fittingChars_close {cs : List Char}
    (h : maxBytes < (String.ofList cs).utf8ByteSize) :
    maxBytes < (String.ofList (fittingChars maxBytes cs)).utf8ByteSize + 4 := by
  induction cs generalizing maxBytes with
  | nil => simp at h
  | cons c rest ih =>
      rw [String.ofList_cons, String.utf8ByteSize_append,
        String.utf8ByteSize_singleton] at h
      have hchar := c.utf8Size_le_four
      rw [fittingChars]
      split
      · next hfits =>
        have hrest := @ih (maxBytes - c.utf8Size) (by omega)
        rw [String.ofList_cons, String.utf8ByteSize_append,
          String.utf8ByteSize_singleton]
        omega
      · simp
        omega

theorem truncateSafe_close {s : String} (h : maxBytes < s.utf8ByteSize) :
    maxBytes < (truncateSafe s maxBytes).utf8ByteSize + 4 := by
  rw [truncateSafe, if_neg (Nat.not_le.mpr h)]
  apply fittingChars_close
  rwa [String.ofList_toList]

theorem limitedTitle_eq_iff (title : String) :
    limitedTitle title = title ↔ title.utf8ByteSize ≤ 200 := by
  unfold limitedTitle
  split
  · next hlong =>
    constructor
    · intro heq
      have hcut := utf8ByteSize_truncateSafe title 190
      have hsize : (truncateSafe title 190).utf8ByteSize + 3 =
          title.utf8ByteSize := by
        conv => rhs; rw [← heq, String.utf8ByteSize_append]
        rfl
      omega
    · intro hshort
      omega
  · next hshort =>
    exact ⟨fun _ => Nat.not_lt.mp hshort, fun _ => rfl⟩

theorem utf8ByteSize_limitedTitle (title : String) :
    (limitedTitle title).utf8ByteSize ≤ 200 := by
  unfold limitedTitle
  split
  · have hcut := utf8ByteSize_truncateSafe title 190
    have hmarker : "...".utf8ByteSize = 3 := by decide
    rw [String.utf8ByteSize_append, hmarker]
    omega
  · omega

theorem utf8ByteSize_limitedDescription_iff (description : String) :
    (limitedDescription description).utf8ByteSize ≤ maxDescriptionBytes ↔
      description.utf8ByteSize ≤ maxDescriptionBytes := by
  unfold limitedDescription
  split
  · next hlong =>
    have hcut := truncateSafe_close hlong
    have hmarker : "... (truncated)".utf8ByteSize = 15 := by decide
    rw [String.utf8ByteSize_append, hmarker]
    omega
  · exact Iff.rfl

/-- A description that is not cut: it fits, or it is a cut one with its
marker. -/
def DescriptionKept (description : String) : Prop :=
  description.utf8ByteSize ≤ maxDescriptionBytes ∨
    description =
      truncateSafe description maxDescriptionBytes ++ "... (truncated)"

theorem limitedDescription_eq_iff (description : String) :
    limitedDescription description = description ↔
      DescriptionKept description := by
  unfold limitedDescription DescriptionKept
  split
  · next hlong =>
    constructor
    · intro heq
      exact Or.inr heq.symm
    · rintro (hshort | heq)
      · omega
      · exact heq.symm
  · next hshort =>
    exact ⟨fun _ => Or.inl (Nat.not_lt.mp hshort), fun _ => rfl⟩

def ContentKept (content : UpdateContent) : Prop :=
  content.title.utf8ByteSize ≤ 200 ∧ DescriptionKept content.description

theorem limited_eq_iff (update : ContextUpdate) :
    limited update = update ↔ ContentKept update.content := by
  rw [ContentKept, ← limitedTitle_eq_iff, ← limitedDescription_eq_iff]
  constructor
  · intro heq
    have hcontent := congrArg ContextUpdate.content heq
    exact ⟨congrArg UpdateContent.title hcontent,
      congrArg UpdateContent.description hcontent⟩
  · rintro ⟨htitle, hdescription⟩
    unfold limited
    rw [htitle, hdescription]

/-!
# Adding an update
-/

theorem incrementalUpdates_addIncrementalUpdateFast (session : ActiveSession)
    (draws : Draws) (update : ContextUpdate) :
    (session.addIncrementalUpdateFast draws update).incrementalUpdates =
      session.incrementalUpdates ++ [limited update] := by
  rw [addIncrementalUpdateFast_eq]

/-!
# What is stored
-/

section

variable [CharTables]

def addIncrementalUpdate (session : ActiveSession) (draws : Draws)
    (update : ContextUpdate) : ActiveSession :=
  let update := limited update
  (((((session.updateCurrentState update).updateEntityGraph draws.now
    update).addRelatedCode update).recordChange draws update).maintainContext
      draws).publish draws update

theorem addIncrementalUpdate_eq (session : ActiveSession) (draws : Draws)
    (update : ContextUpdate) :
    session.addIncrementalUpdate draws update =
      (session.updateEntityGraph draws.now
        (limited update)).addIncrementalUpdateFast draws update :=
  rfl

theorem incrementalUpdates_addIncrementalUpdate (session : ActiveSession)
    (draws : Draws) (update : ContextUpdate) :
    (session.addIncrementalUpdate draws update).incrementalUpdates =
      session.incrementalUpdates ++ [limited update] := by
  rw [addIncrementalUpdate_eq, incrementalUpdates_addIncrementalUpdateFast]
  rfl

/-- A stored update keeps to the limits, and a session that is given it again
stores it as it is. -/
structure WithinLimits (stored : ContextUpdate) : Prop where
  description :
    stored.content.description.utf8ByteSize ≤ maxDescriptionBytes
  title : stored.content.title.utf8ByteSize ≤ 200
  again : forall (session : ActiveSession) (draws : Draws),
    (session.addIncrementalUpdate draws stored).incrementalUpdates =
      session.incrementalUpdates ++ [stored]

theorem withinLimits_limited_iff (update : ContextUpdate) :
    WithinLimits (limited update) ↔
      update.content.description.utf8ByteSize ≤ maxDescriptionBytes := by
  rw [← utf8ByteSize_limitedDescription_iff]
  constructor
  · intro h
    exact h.description
  · intro hdescription
    refine ⟨hdescription, utf8ByteSize_limitedTitle _, ?_⟩
    intro session draws
    have hkept : ContentKept (limited update).content :=
      ⟨utf8ByteSize_limitedTitle _, Or.inl hdescription⟩
    rw [incrementalUpdates_addIncrementalUpdate, (limited_eq_iff _).mpr hkept]

/-- The update that `add_incremental_update` stores keeps to the limits, and
stays as it is when it is stored again, exactly when its description was not
cut. -/
theorem stored_within_limits_iff (session : ActiveSession) (draws : Draws)
    (update : ContextUpdate) :
    (exists stored, WithinLimits stored ∧
      (session.addIncrementalUpdate draws update).incrementalUpdates =
        session.incrementalUpdates ++ [stored]) ↔
      update.content.description.utf8ByteSize ≤ maxDescriptionBytes := by
  rw [incrementalUpdates_addIncrementalUpdate, ← withinLimits_limited_iff]
  constructor
  · rintro ⟨stored, hwithin, hstored⟩
    rw [List.append_cancel_left_eq, List.singleton_inj] at hstored
    rw [hstored]
    exact hwithin
  · intro hwithin
    exact ⟨_, hwithin, rfl⟩

end

attribute [local instance] EntityGraph.asciiTables

def longDescribed : ContextUpdate :=
  ContextUpdate.plain 1 0
    (String.ofList (List.replicate (maxDescriptionBytes + 1) 'a'))

/-- The description that is stored of it is longer than the limit. -/
theorem cut_description_over_limit :
    ¬ exists stored, WithinLimits stored ∧
      ((new 0 none none 0).addIncrementalUpdate ⟨1, 1, 2, 3⟩
        longDescribed).incrementalUpdates = [stored] := by
  have hsize : forall n : Nat,
      (String.ofList (List.replicate n 'a')).utf8ByteSize = n := by
    intro n
    induction n with
    | zero => rfl
    | succ n ih =>
        have hchar : 'a'.utf8Size = 1 := by decide
        rw [List.replicate_succ, String.ofList_cons, String.utf8ByteSize_append,
          String.utf8ByteSize_singleton, ih, hchar]
        omega
  rintro ⟨stored, hwithin, hstored⟩
  rw [incrementalUpdates_addIncrementalUpdate] at hstored
  obtain rfl : limited longDescribed = stored := by
    simpa [new] using hstored
  have hshort := (withinLimits_limited_iff longDescribed).mp hwithin
  have hlong : longDescribed.content.description.utf8ByteSize =
      maxDescriptionBytes + 1 :=
    hsize _
  omega

end ActiveSession
end Session
end PostCortex
