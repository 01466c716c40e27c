import PostCortex.Graph.RoundTrip

/-!
# A graph read twice

Relinking makes the mentions from the names of the entities alone, so what is
read, relinked and written is read and relinked as the same graph again.
-/

namespace PostCortex
namespace Graph
namespace EntityGraph

open PostCortex.Core

section

variable [CharTables]

def withMention (resolve : String -> Option String) (id : Uuid)
    (mentions : Std.ExtTreeMap String (List Uuid)) (name : String) :
    Std.ExtTreeMap String (List Uuid) :=
  match resolve name with
  | none => mentions
  | some canonical =>
      let ids := mentions[canonical]?.getD []
      mentions.insert canonical
        (if ids.getLast? ≠ some id ∧ id ∉ ids then ids ++ [id] else ids)

def relinkedMentions (resolve : String -> Option String)
    (updates : List ContextUpdate) : Std.ExtTreeMap String (List Uuid) :=
  updates.foldl
    (fun mentions update =>
      (mentionedNames update).foldl (withMention resolve update.id) mentions) ∅

theorem relinkMention_eq (g : EntityGraph) (id : Uuid) (name : String) :
    relinkMention id g name =
      { g with
        entityMentions := withMention g.resolve id g.entityMentions name } := by
  unfold relinkMention withMention
  cases g.resolve name with
  | none | some canonical => rfl

theorem relinkMentions_eq (g : EntityGraph) (updates : List ContextUpdate) :
    g.relinkMentions updates =
      { g with entityMentions := relinkedMentions g.resolve updates } := by
  have hnames : forall (names : List String) (id : Uuid)
      (mentions : Std.ExtTreeMap String (List Uuid)),
      names.foldl (relinkMention id) { g with entityMentions := mentions } =
        { g with
          entityMentions := names.foldl (withMention g.resolve id) mentions } := by
    intro names id
    induction names with
    | nil =>
        exact fun _ => rfl
    | cons name rest ih =>
        intro mentions
        rw [List.foldl_cons, List.foldl_cons, relinkMention_eq]
        exact ih _
  have hupdates : forall (us : List ContextUpdate)
      (mentions : Std.ExtTreeMap String (List Uuid)),
      us.foldl (fun g update =>
          (mentionedNames update).foldl (relinkMention update.id) g)
        { g with entityMentions := mentions } =
        { g with
          entityMentions := us.foldl (fun mentions update =>
            (mentionedNames update).foldl (withMention g.resolve update.id) mentions)
              mentions } := by
    intro us
    induction us with
    | nil =>
        exact fun _ => rfl
    | cons u rest ih =>
        intro mentions
        rw [List.foldl_cons, List.foldl_cons, hnames]
        exact ih _
  exact hupdates updates ∅

variable {g : EntityGraph}

theorem Restorable.reload (h : g.Restorable) (now : Timestamp) :
    (g.reload now).Restorable where
  resolving := h.resolving.reload now
  indexed := h.indexed.reload now
  exact := by
    rw [h.resolving.reload_eq h.exact now]
    exact h.exact

theorem Restorable.relinkMentions (h : g.Restorable) (updates : List ContextUpdate) :
    (g.relinkMentions updates).Restorable :=
  h.write 0 (w := GraphWrite.relinkMentions updates) True.intro (by simp)

theorem Restorable.relink_reload (h : g.Restorable) (now : Timestamp)
    (updates : List ContextUpdate) :
    (((g.relinkMentions updates).reload now).relinkMentions updates).serialize =
      (g.relinkMentions updates).serialize := by
  have hround := (h.relinkMentions updates).resolving.roundTrips
    (h.relinkMentions updates).exact now
  have hresolve : ((g.relinkMentions updates).reload now).resolve = g.resolve := by
    funext n
    rw [hround.resolve, relinkMentions_eq]
    rfl
  have hdocument := hround.document
  have hmentions : (g.relinkMentions updates).serialize.entityMentions =
      relinkedMentions g.resolve updates := by
    rw [relinkMentions_eq]
    rfl
  rw [relinkMentions_eq ((g.relinkMentions updates).reload now), hresolve]
  show { ((g.relinkMentions updates).reload now).serialize with
    entityMentions := relinkedMentions g.resolve updates } = _
  rw [hdocument, ← hmentions]

end

end EntityGraph
end Graph

end PostCortex
